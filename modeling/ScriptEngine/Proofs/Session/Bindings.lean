import Mathlib
import ScriptEngine.Proofs.Session.Declarations
import ScriptEngine.Proofs.Universe.Consistency
import ScriptEngine.Proofs.Universe.LatestBinding

/-!
Declared methods stay bound.

A declaration that succeeds binds a callable to the representation of the method's receiver
(`Universe.Attaches`). Nothing takes that binding away: an admissible action takes every universe of
the session by steps (`Session.Ledger.attaches_perform`), and a step replaces a callable by another
one at most (`Universe.Step.attaches`). Main statement: where methods are declared through
interpreters only, the method of each declaration in the log stays bound (`Session.Leads.attaches`).

A binding is found unless the receiver's representation is a pointer to a placeholder that was left
behind (`Universe.Stranded`): which methods are answered with a callable is decided by that alone
(`Universe.exists_answer_iff`).
-/

namespace ScriptEngine

/-- Attaching a callable takes none away. -/
theorem ReprTable.exists_callable?_bind {t : ReprTable} {r x : ReprId} {name method : String}
    {callable bound : Callable} (h : t.callable? x method = some bound) :
    ∃ bound', (t.bind r name callable).callable? x method = some bound' := by
  by_cases hne : x ≠ r ∨ method ≠ name
  · exact ⟨bound, (callable?_bind_of_ne hne _).trans h⟩
  · simp only [not_or, not_not] at hne
    obtain ⟨rfl, rfl⟩ := hne
    exact ⟨callable, callable?_bind_self (lt_size_of_callable? h) ..⟩

namespace Universe

/-- The method `name` of `ty` is bound: a callable stands under its name on the representation of
its receiver. -/
def Attaches (u : Universe) (ty : TypeId) (name : String) : Prop :=
  ∃ d m recv r callable, u.catalog.decl? ty = some (.named d) ∧ m ∈ d.methods ∧ m.name = name ∧
    m.sig.recv = some recv ∧ u.reprs.built.find? recv = some r ∧
    u.reprs.callable? r name = some callable

/-- The receiver was represented by a pointer to a placeholder that was left behind. -/
def Stranded (u : Universe) (recv : TypeId) : Prop :=
  ∃ r x, u.reprs.built.find? recv = some r ∧ u.reprs.kind r = .pointer x ∧
    u.reprs.kind x = .invalid

section Attaches

variable {u u' : Universe} {ty : TypeId} {name : String} {func : FuncId} {a : Act} {A : Set Act}

/-- A binding is there as long as no step takes callables away. -/
theorem Attaches.mono (h : u.Attaches ty name) (g : Catalog.Grows u.catalog u'.catalog)
    (hext : ReprTable.Extends u.reprs u'.reprs)
    (hkept : ∀ r callable, u.reprs.callable? r name = some callable →
      ∃ callable', u'.reprs.callable? r name = some callable') : u'.Attaches ty name := by
  obtain ⟨d, m, recv, r, callable, hd, hm, hname, hrecv, hr, hc⟩ := h
  obtain ⟨d', hd', -, -, -, hmethods⟩ := g.named ty d hd
  obtain ⟨callable', hc'⟩ := hkept r callable hc
  have hr' := hext.built recv r hr
  exact ⟨d', m, recv, r, callable', hd', hmethods.subset hm, hname, hrecv, hr', hc'⟩

/-- **No step takes a binding away.** -/
theorem Step.attaches (s : Step u a u') (h : Sound u) (hattaches : u.Attaches ty name) :
    u'.Attaches ty name := by
  refine hattaches.mono s.grows (s.extended h) fun r callable hc => ?_
  by_cases ha : a = .bind
  · subst ha
    cases s with
    | bind x method callable' =>
      rw [bindCallable_eq]
      exact ReprTable.exists_callable?_bind hc
  · exact ⟨callable, by rw [(s.prolongs ha h).callables, hc]⟩

theorem Steps.attaches (s : Steps A u u') (h : Sound u) (hattaches : u.Attaches ty name) :
    u'.Attaches ty name :=
  (s.keeps (P := fun v => v.Attaches ty name) (fun _ step hv hat => step.attaches hv hat) h
    hattaches).2

/-- Binding a method makes it bound. -/
theorem BindsMethod.attaches (hb : BindsMethod u ty name func u') (h : Sound u) :
    u'.Attaches ty name := by
  obtain ⟨u₁, m, recv, r, callable, rfl, s, hnew, rfl, rfl⟩ := hb.boundFor h
  obtain ⟨d, hd, hm⟩ := hnew.method
  rw [bindCallable_eq]
  exact ⟨d, m, recv, r, callable, hd, hm, rfl, hnew.declared, hnew.built,
    ReprTable.callable?_bind_self ((s.sound h).lt_size hnew.built) ..⟩

/-- So does declaring one. -/
theorem DeclaredBound.attaches (hd : DeclaredBound u ty name func u') (h : Sound u) :
    u'.Attaches ty name := by
  obtain ⟨u₁, s, -, hb⟩ := hd.bound
  exact hb.attaches (s.sound h)

end Attaches

/-! ### Which methods are answered with a callable -/

section Answers

variable {B : Bindings} {u : Universe} {ty : TypeId} {index : Nat} {m : MethodDecl}
  {method : Method} {recv : TypeId} {r : ReprId}

/-- What is answered with a callable is no method of an interface. -/
theorem interface?_eq_none_of_answer (h : Sound u) {func : FuncId}
    (hanswer : u.answer ty index = .ok method) (hfunc : method.func = some func) :
    u.catalog.interface? ty = none := by
  cases hm : methodAt u.catalog ty index with
  | error e =>
    simp only [answer, hm] at hanswer
    cases hanswer
  | ok m =>
    rcases answer_eq_of_methodAt h hm with ⟨e, he, -⟩ | ⟨u', r, s, hr, hsame⟩
    · cases he.symm.trans hanswer
    · have hcatalog := Steps.catalog_eq (by simp) s h
      rw [← hcatalog] at hm ⊢
      cases hiface : u'.catalog.interface? ty with
      | none => rfl
      | some d =>
        have hnone := func_of_answer_interface (s.sound h) hr hm (Option.isSome_of_eq_some hiface)
          (hsame.trans hanswer)
        cases hfunc.symm.trans hnone

/-- Steps leave a stranded receiver as it is. -/
theorem Stranded.extends (h : u.Stranded recv) (hsound : Sound u) {u' : Universe}
    (hext : ReprTable.Extends u.reprs u'.reprs) : u'.Stranded recv := by
  obtain ⟨r, x, hr, hkind, hx⟩ := h
  have hpart : x ∈ (u.reprs.kind r).parts := by
    rw [hkind]
    exact List.mem_singleton_self x
  have hlt := hsound.reprs.bounds r x hpart
  refine ⟨r, x, hext.built recv r hr, ?_, (hext.kind_eq hlt).trans hx⟩
  exact (hext.kind_eq (hsound.lt_size hr)).trans hkind

/-- In a settled universe, no receiver is stranded. -/
theorem Settled.not_stranded (h : u.Settled) : ¬ u.Stranded recv := by
  rintro ⟨r, x, hr, hkind, hx⟩
  refine h recv r hr x (.single ?_) hx
  rw [hkind]
  exact List.mem_singleton_self x

/-- Nothing is found for a method whose receiver is stranded. -/
theorem Stranded.not_attached (hstranded : u.Stranded recv) (h : Sound u)
    (hattributed : Attributed B u) (hiface : u.catalog.interface? ty = none)
    (hm : methodAt u.catalog ty index = .ok m) (hrecv : m.sig.recv = some recv)
    (hr : u.reprs.built.find? ty = some r) (callable : Callable) :
    ¬ u.reprs.Attached r m.name callable := by
  obtain ⟨d, hd, hmem⟩ := mem_methods_of_methodAt hiface hm
  have hn := Catalog.isNamed_iff.mpr ⟨d, hd⟩
  obtain ⟨p, x, hp, hkind, hx⟩ := hstranded
  -- A callable for the method is bound to what represents its receiver.
  have hbound : ∀ {m' recv' q}, m'.name = m.name → u.BoundFor ty m' recv' q callable → q = p := by
    intro m' recv' q hname hb
    obtain ⟨d', hd', hm'⟩ := hb.method
    obtain rfl := TypeDecl.named.inj (Option.some.inj (hd.symm.trans hd'))
    obtain rfl := h.methods.eq_of_name hd hm' hmem hname
    obtain rfl := Option.some.inj (hrecv.symm.trans hb.declared)
    exact Option.some.inj (hb.built.symm.trans hp)
  rintro (hown | ⟨-, q, hinterned, hq⟩)
  · obtain ⟨n, m', recv', hname, hb, -⟩ := hattributed r m.name callable hown
    obtain ⟨rfl, -⟩ := hb.owner_own h hn hiface hr
    obtain rfl := hbound hname hb
    exact h.kind_ne_pointer hn (Catalog.kindOf_ne_interface hiface) (methodAt_eq_ok.mp hm).1 hr x
      hkind
  · obtain ⟨n, m', recv', hname, hb, -⟩ := hattributed q m.name callable hq
    obtain ⟨rfl, -⟩ := hb.owner_pointer h hn hiface hr hinterned
    obtain rfl := hbound hname hb
    obtain rfl := ReprKind.pointer.inj (hinterned.kind_eq.symm.trans hkind)
    exact h.reprs.finished _ r hr hx

/-- So it is not answered with a callable. -/
theorem Stranded.func_eq_none (hstranded : u.Stranded recv) (h : Sound u)
    (hattributed : Attributed B u) (hiface : u.catalog.interface? ty = none)
    (hm : methodAt u.catalog ty index = .ok m) (hrecv : m.sig.recv = some recv)
    (hanswer : u.answer ty index = .ok method) : method.func = none := by
  rcases answer_eq_of_methodAt h hm with ⟨e, he, -⟩ | ⟨u', x, s, hx, hsame⟩
  · cases he.symm.trans hanswer
  have hstranded' := hstranded.extends h (s.extended h)
  have hattributed' := s.attributed (by simp) h hattributed
  rw [← Steps.catalog_eq (by simp) s h] at hiface hm
  have hunbound := hstranded'.not_attached (s.sound h) hattributed' hiface hm hrecv hx
  rw [← hsame, answer_of_not_attached hiface hx hm (s.sound h) hunbound] at hanswer
  split at hanswer
  · cases hanswer
  · cases hanswer
    rfl

/-- What is bound for a method is found, on the representation of its type or on the pointer to it,
unless the receiver is stranded. -/
theorem Attaches.exists_attached (hattaches : u.Attaches ty m.name) (h : Sound u)
    (hiface : u.catalog.interface? ty = none) (hm : methodAt u.catalog ty index = .ok m)
    (hstranded : ∀ recv, m.sig.recv = some recv → ¬ u.Stranded recv) :
    ∃ r callable, u.reprs.built.find? ty = some r ∧ u.reprs.Attached r m.name callable := by
  obtain ⟨d, m', recv, x, callable, hd, hm', hname, hrecv, hx, hc⟩ := hattaches
  obtain ⟨d', hd', hmem⟩ := mem_methods_of_methodAt hiface hm
  obtain rfl := TypeDecl.named.inj (Option.some.inj (hd.symm.trans hd'))
  obtain rfl := h.methods.eq_of_name hd hm' hmem hname
  obtain ⟨recv', hrecv', hreceiver⟩ := h.methods.receiver ty d hd m' hm'
  obtain rfl := Option.some.inj (hrecv.symm.trans hrecv')
  rcases hreceiver with rfl | hpointer
  · exact ⟨x, callable, hx, .inl hc⟩
  · obtain ⟨r, hinterned, hr⟩ := h.interned_of_pointer hpointer hx
    have hbuilt := hr.resolve_right fun ⟨e, he, hkind⟩ => hstranded recv hrecv
      ⟨x, r, hx, hinterned.kind_eq, (ReprTable.kind_of_get? he).trans hkind⟩
    have hkind := h.kind_ne_pointer (Catalog.isNamed_iff.mpr ⟨d, hd⟩)
      (Catalog.kindOf_ne_interface hiface) (methodAt_eq_ok.mp hm).1 hbuilt
    exact ⟨r, callable, hbuilt, .inr ⟨hkind, x, hinterned, hc⟩⟩

/-- **A method that is bound is answered with a callable unless its receiver is stranded.** -/
theorem exists_answer_iff (h : Sound u) (hattributed : Attributed B u)
    (hattaches : u.Attaches ty m.name) (hiface : u.catalog.interface? ty = none)
    (hm : methodAt u.catalog ty index = .ok m) :
    (∃ method func, u.answer ty index = .ok method ∧ method.func = some func) ↔
      ∀ recv, m.sig.recv = some recv → ¬ u.Stranded recv := by
  constructor
  · rintro ⟨method, func, hanswer, hfunc⟩ recv hrecv hstranded
    cases hfunc.symm.trans (hstranded.func_eq_none h hattributed hiface hm hrecv hanswer)
  · intro hstranded
    obtain ⟨r, callable, hr, hattached⟩ := hattaches.exists_attached h hiface hm hstranded
    obtain ⟨hanswer, -⟩ := answer_of_attached hiface hr hm h hattributed hattached
    exact ⟨_, callable.func, hanswer, rfl⟩

end Answers

end Universe

namespace Session

variable {log : List Declaration} {s : Session} {A : Set Universe.Act}

/-! ### What actions do to universes -/

/-- A universe takes steps, and the others none. -/
theorem steps_setUniverse {index : Nat} {u : Universe}
    (h : Universe.Steps A (s.typesAt index) u) (j : Nat) :
    Universe.Steps A (s.typesAt j) ((s.setUniverse index u).typesAt j) := by
  rw [typesAt_setUniverse]
  split
  · next hj => exact hj.1 ▸ h
  · exact .refl

/-- A request that declares nothing takes every universe by steps. -/
theorem Ledger.steps_request (h : Ledger log s) {key : String} {budget : Nat} {r : Request}
    (hr : ∀ ty decl f p, r ≠ .method ty decl f p) (j : Nat) :
    Universe.Steps Set.univ (s.typesAt j)
      ((s.perform (.request key budget r)).typesAt j) := by
  refine perform_request (P := fun s' => Universe.Steps Set.univ (s.typesAt j) (s'.typesAt j)) .refl
    fun i _ => ?_
  apply (r.ends_run_meets hr budget (h.universes i.universeIndex).sound).mono
  · exact fun _ _ hm => steps_setUniverse (Universe.Steps.mono (Set.subset_univ _) hm.types) j
  · exact fun _ _ hm => steps_setUniverse (Universe.Steps.mono (Set.subset_univ _) hm.types) j

/-- The declaration of a method takes every universe by steps, and binds the method if it
succeeds. -/
theorem Ledger.attaches_method (h : Ledger log s) {key : String} {budget : Nat} {ty : TypeId}
    {decl : MethodDecl} {f : Function} {pointerReceiver : Bool}
    (hrange : ∀ i ∈ s.interpreters.find? key,
      ty.index < (s.typesAt i.universeIndex).catalog.size ∧
        ∀ p ∈ decl.sig.types, p.index < (s.typesAt i.universeIndex).catalog.size) :
    (∀ j, Universe.Steps Set.univ (s.typesAt j)
      ((s.perform (.request key budget (.method ty decl f pointerReceiver))).typesAt j)) ∧
    ∀ d ∈ s.declared (.request key budget (.method ty decl f pointerReceiver)),
      ((s.perform (.request key budget (.method ty decl f pointerReceiver))).typesAt
        d.universeIndex).Attaches d.ty d.name := by
  refine perform_method (P := fun s' declared =>
    (∀ j, Universe.Steps Set.univ (s.typesAt j) (s'.typesAt j)) ∧
      ∀ d ∈ declared, (s'.typesAt d.universeIndex).Attaches d.ty d.name)
    (fun j => (h.universes j).sound) hrange ⟨fun _ => .refl, nofun⟩ (fun i u hi hsteps => ?_)
    fun i func u hi hb => ?_
  · exact ⟨steps_setUniverse (Universe.Steps.mono (Set.subset_univ _) hsteps), nofun⟩
  · have hsound := (h.universes i.universeIndex).sound
    refine ⟨steps_setUniverse (hb.steps hsound), ?_⟩
    rintro d ⟨⟩
    change ((s.setUniverse i.universeIndex u).typesAt i.universeIndex).Attaches _ _
    rw [typesAt_setUniverse, if_pos ⟨rfl, h.placed key i hi⟩]
    exact hb.attaches hsound

/-- **An admissible action takes every universe by steps, and what it declares is bound.** -/
theorem Ledger.attaches_perform (h : Ledger log s) {a : Action} (ha : a.Admissible s) :
    (∀ j, Universe.Steps Set.univ (s.typesAt j) ((s.perform a).typesAt j)) ∧
      ∀ d ∈ s.declared a, ((s.perform a).typesAt d.universeIndex).Attaches d.ty d.name := by
  cases a with
  | addUniverse threadSafe =>
    refine ⟨fun j => ?_, nofun⟩
    change Universe.Steps _ _ ((s.addUniverse threadSafe).2.typesAt j)
    rw [typesAt_addUniverse]
  | addInterpreter key index limit globals => exact ⟨fun _ => .refl, nofun⟩
  | types op =>
    have hsteps := Universe.perform_steps (h.universes 0).sound ha.1
    exact ⟨steps_setUniverse (Universe.Steps.mono (Set.subset_univ _) hsteps), nofun⟩
  | request key budget r =>
    cases r with
    | method ty decl f pointerReceiver => exact h.attaches_method ha
    | _ => exact ⟨h.steps_request (by simp), nofun⟩

/-- **What a session declared stays bound.** -/
theorem Leads.attaches {threadSafe : Bool} (h : Leads ([], .start threadSafe) (log, s)) :
    ∀ d ∈ log, (s.typesAt d.universeIndex).Attaches d.ty d.name := by
  have hall : ∀ q, Leads ([], .start threadSafe) q →
      ∀ d ∈ q.1, (q.2.typesAt d.universeIndex).Attaches d.ty d.name := by
    intro q hq
    induction hq with
    | refl => exact nofun
    | tail before last ih =>
      obtain ⟨log, s, a, ha⟩ := last
      have hledger := Leads.ledger before (.start threadSafe)
      obtain ⟨hsteps, hnew⟩ := hledger.attaches_perform ha
      intro d hd
      rcases List.mem_append.mp hd with hd | hd
      · exact (hsteps d.universeIndex).attaches (hledger.universes _).sound (ih d hd)
      · exact hnew d (Option.mem_toList.mp hd)
  exact hall (log, s) h

end Session

end ScriptEngine
